import Hypercube.Interchange.Scalar

/-!
# Scalar types survive their exchange

An encoding decides how a scalar type is laid out, and how the name and the digit counts are found
when it is read.  Whatever it finds, digit counts only become a decimal if they are those of one.
With a lawful encoding it is also known which objects are read: an object spells out a scalar type,
valid or not, and what is spelled out is then checked.

* `Scalar.checked` — the answer to a scalar type that has been spelled out.
* `Scalar.SpelledBy` — the objects that spell out a scalar type.
* `Scalar.valid_of_ofJson` — with any encoding, nothing but valid scalar types is read.
* `Scalar.ofJson_of_spelledBy`, `Scalar.exists_spelledBy` — with a lawful one, objects are read by
  what they spell out.
* `Scalar.valid_scalars_round_trip` — exactly the valid scalar types survive, nothing else is ever
  read, and which objects are refused for their digit counts.
-/

set_option autoImplicit false

namespace Hypercube.Scalar

variable {E : Encoding} {t : Scalar} {v : Json} {p s : UInt32}

/-! ## Checking -/

/-- The answer to a scalar type that is spelled out. -/
def checked (t : Scalar) : Except ScalarReadError Scalar :=
  match t with
  | decimal d => ofWrittenCounts d.precision d.scale
  | _ => .ok t

theorem checked_of_plain (h : t.decimal? = none) : t.checked = .ok t := by
  cases t with
  | decimal d => cases h
  | string | numeric | dateTime | boolean | symbol | generic => rfl

theorem checked_of_valid (h : t.Valid) : t.checked = .ok t := by
  cases t with
  | decimal d =>
    show ofWrittenCounts d.precision d.scale = .ok (decimal d)
    rw [ofWrittenCounts, Decimal.ofDigits?_eq_some_iff.2 ⟨rfl, h⟩]
  | string | numeric | dateTime | boolean | symbol | generic => rfl

/-- Only digit counts can be wrong. -/
theorem exists_checked_of_not_valid (h : ¬t.Valid) :
    ∃ p s, t = decimal ⟨p, s⟩ ∧ t.checked = .error (.invalidDecimal p s) := by
  cases t with
  | decimal d =>
    have hnone : Decimal.ofDigits? d.precision d.scale = none := by
      rw [Option.eq_none_iff_forall_ne_some]
      intro d' hd'
      obtain ⟨rfl, hvalid⟩ := Decimal.ofDigits?_eq_some_iff.1 hd'
      exact h hvalid
    refine ⟨d.precision, d.scale, rfl, ?_⟩
    show ofWrittenCounts d.precision d.scale = _
    rw [ofWrittenCounts, hnone]
  | string | numeric | dateTime | boolean | symbol | generic => exact absurd trivial h

theorem checked_eq_ok_iff {t' : Scalar} : t.checked = .ok t' ↔ t' = t ∧ t.Valid := by
  by_cases h : t.Valid
  · rw [checked_of_valid h, Except.ok.injEq, eq_comm]
    exact (and_iff_left h).symm
  · obtain ⟨p, s, -, hchecked⟩ := exists_checked_of_not_valid h
    simp [hchecked, h]

theorem checked_eq_invalidDecimal_iff :
    t.checked = .error (.invalidDecimal p s) ↔ t = decimal ⟨p, s⟩ ∧ ¬t.Valid := by
  by_cases h : t.Valid
  · simp [checked_of_valid h, h]
  · obtain ⟨p', s', rfl, hchecked⟩ := exists_checked_of_not_valid h
    simp [hchecked, h]

/-! ## Reading with any encoding -/

theorem ofPlainTag?_eq_some_iff {name : String} :
    ofPlainTag? name = some t ↔ name = t.tag ∧ t.decimal? = none := by
  constructor
  · intro h
    unfold ofPlainTag? at h
    split at h <;> cases h <;> exact ⟨rfl, rfl⟩
  · rintro ⟨rfl, h⟩
    cases t with
    | decimal d => cases h
    | string | numeric | dateTime | boolean | symbol | generic => rfl

theorem ofVariant_plain (h : t.decimal? = none) (content : Json) :
    ofVariant E t.tag content = if E.isBare content then .ok t else .error .malformed := by
  have hname : t.tag ≠ "Decimal" := by
    cases t with
    | decimal d => cases h
    | string | numeric | dateTime | boolean | symbol | generic => decide
  rw [ofVariant, if_neg hname, ofPlainTag?_eq_some_iff.2 ⟨rfl, h⟩]

/-- A variant with the name of a scalar type is checked, if its content is accepted. -/
theorem ofVariant_tag {content : Json} (hbare : E.isBare content = true)
    (hwords : ∀ d, t = decimal d →
      E.words "precision" "scale" content = some (d.precision, d.scale)) :
    ofVariant E t.tag content = t.checked := by
  cases hd : t.decimal? with
  | none => rw [ofVariant_plain hd, if_pos hbare, checked_of_plain hd]
  | some d =>
    obtain rfl : t = decimal d := decimal?_eq_some_iff.1 hd
    simp [ofVariant, tag, hwords d rfl, checked]

/-- Every answer other than a refusal as malformed comes of checking a scalar type.  It has the name
of the variant, and its digit counts if it is a decimal. -/
theorem exists_of_ofVariant {name : String} {content : Json}
    (h : ofVariant E name content ≠ .error .malformed) :
    ∃ t : Scalar, ofVariant E name content = t.checked ∧ name = t.tag ∧
      ∀ d, t = decimal d →
        E.words "precision" "scale" content = some (d.precision, d.scale) := by
  by_cases hname : name = "Decimal"
  · rw [ofVariant, if_pos hname] at h ⊢
    cases hwords : E.words "precision" "scale" content with
    | none =>
      rw [hwords] at h
      exact absurd rfl h
    | some counts =>
      refine ⟨decimal ⟨counts.1, counts.2⟩, rfl, hname, ?_⟩
      rintro d ⟨⟩
      rfl
  · cases hplain : ofPlainTag? name with
    | none =>
      rw [ofVariant, if_neg hname, hplain] at h
      exact absurd rfl h
    | some t =>
      obtain ⟨rfl, hd⟩ := ofPlainTag?_eq_some_iff.1 hplain
      have hbare : E.isBare content = true := by
        rw [ofVariant_plain hd] at h
        split at h
        · assumption
        · exact absurd rfl h
      refine ⟨t, by rw [ofVariant_plain hd, if_pos hbare, checked_of_plain hd], rfl, ?_⟩
      rintro d rfl
      cases hd

/-- Whatever an encoding finds, nothing but valid scalar types is read. -/
theorem valid_of_ofJson (h : ofJson E v = .ok t) : t.Valid := by
  unfold ofJson at h
  split at h
  · rename_i name content _
    have hread : ofVariant E name content ≠ .error .malformed := by simp [h]
    obtain ⟨t', hchecked, -⟩ := exists_of_ofVariant hread
    rw [hchecked] at h
    obtain ⟨rfl, hvalid⟩ := checked_eq_ok_iff.1 h
    exact hvalid
  · cases h

/-! ## Reading with a lawful encoding -/

/-- An object spells out a scalar type, whose digit counts may be any words: it has the name and the
digit counts as fields. -/
structure SpelledBy (t : Scalar) (v : Json) : Prop where
  isObject : v.isObject = true
  type : v.field? "type" = some (.string t.tag)
  counts : ∀ {field w}, (field, w) ∈ t.counts → v.field? field = some (.ofWord w)

theorem spelledBy_toJson (hE : E.Lawful) (t : Scalar) : t.SpelledBy (t.toJson E) where
  isObject := hE.tagged_isObject _
  type := hE.tagged_tag _
  counts := hE.tagged_word _

theorem spelledBy_decimal_iff :
    (decimal ⟨p, s⟩).SpelledBy v ↔ v.isObject = true ∧
      v.field? "type" = some (.string "Decimal") ∧
      v.field? "precision" = some (.ofWord p) ∧ v.field? "scale" = some (.ofWord s) := by
  constructor
  · rintro ⟨hv, htype, hcounts⟩
    exact ⟨hv, htype, hcounts (by simp [counts]), hcounts (by simp [counts])⟩
  · rintro ⟨hv, htype, hprecision, hscale⟩
    refine ⟨hv, htype, fun h => ?_⟩
    simp only [counts, List.mem_cons, Prod.mk.injEq, List.not_mem_nil, or_false] at h
    obtain ⟨rfl, rfl⟩ | ⟨rfl, rfl⟩ := h
    · exact hprecision
    · exact hscale

/-- What is spelled out is read, and then checked. -/
theorem ofJson_of_spelledBy (hE : E.Lawful) (h : t.SpelledBy v) : ofJson E v = t.checked := by
  obtain ⟨content, huntag, hobject, hfields⟩ := hE.untag_of_tag h.isObject h.type
  rw [ofJson, huntag]
  refine ofVariant_tag (hE.isBare_object hobject) ?_
  rintro d rfl
  rw [hE.words_object hobject, hfields "precision" (by decide), hfields "scale" (by decide)]
  exact ⟨h.counts (by simp [counts]), h.counts (by simp [counts])⟩

/-- What is not malformed is spelled out. -/
theorem exists_spelledBy (hE : E.Lawful) (hv : v.isObject = true)
    (h : ofJson E v ≠ .error .malformed) : ∃ t : Scalar, t.SpelledBy v := by
  unfold ofJson at h
  split at h
  · rename_i name content huntag
    obtain ⟨t, -, rfl, hwords⟩ := exists_of_ofVariant h
    have htype := hE.tag_of_untag hv huntag
    obtain ⟨content', huntag', hobject, hfields⟩ := hE.untag_of_tag hv htype
    obtain rfl : content = content' := by
      rw [huntag] at huntag'
      cases huntag'
      rfl
    refine ⟨t, hv, htype, fun {field w} hcount => ?_⟩
    cases t with
    | decimal d =>
      have hboth := (hE.words_object hobject).1 (hwords d rfl)
      rw [hfields "precision" (by decide), hfields "scale" (by decide)] at hboth
      exact (spelledBy_decimal_iff.2 ⟨hv, htype, hboth⟩).counts hcount
    | string | numeric | dateTime | boolean | symbol | generic => cases hcount
  · exact absurd rfl h

/-- An answer to an object, other than a refusal as malformed, comes of checking what the object
spells out. -/
theorem ofJson_eq_iff (hE : E.Lawful) (hv : v.isObject = true)
    {answer : Except ScalarReadError Scalar} (h : answer ≠ .error .malformed) :
    ofJson E v = answer ↔ ∃ t : Scalar, t.SpelledBy v ∧ t.checked = answer := by
  constructor
  · rintro rfl
    obtain ⟨t, ht⟩ := exists_spelledBy hE hv h
    exact ⟨t, ht, (ofJson_of_spelledBy hE ht).symm⟩
  · rintro ⟨t, ht, rfl⟩
    exact ofJson_of_spelledBy hE ht

/-- The digit counts of an object are refused exactly if they are spelled out and not those of a
decimal. -/
theorem ofJson_eq_invalidDecimal_iff (hE : E.Lawful) (hv : v.isObject = true) :
    ofJson E v = .error (.invalidDecimal p s) ↔
      (decimal ⟨p, s⟩).SpelledBy v ∧ ¬(decimal ⟨p, s⟩).Valid := by
  rw [ofJson_eq_iff hE hv (by simp)]
  constructor
  · rintro ⟨t, hspelled, hchecked⟩
    obtain ⟨rfl, hvalid⟩ := checked_eq_invalidDecimal_iff.1 hchecked
    exact ⟨hspelled, hvalid⟩
  · rintro ⟨hspelled, hvalid⟩
    exact ⟨_, hspelled, checked_eq_invalidDecimal_iff.2 ⟨rfl, hvalid⟩⟩

theorem ofJson_toJson_iff (hE : E.Lawful) (t : Scalar) :
    ofJson E (t.toJson E) = .ok t ↔ t.Valid := by
  rw [ofJson_of_spelledBy hE (spelledBy_toJson hE t), checked_eq_ok_iff]
  exact and_iff_right rfl

/-- With any lawful encoding, exactly the valid scalar types are read back from their written form.
Whatever JSON value a scalar type is read from, it is valid, so that it survives being written and
read again.  An object is refused for its digit counts exactly if its type is that of decimals, both
counts are numbers in the range of words, and they are not those of a decimal; the refusal names
them. -/
theorem valid_scalars_round_trip (hE : E.Lawful) :
    (∀ t : Scalar, ofJson E (t.toJson E) = .ok t ↔ t.Valid) ∧
    (∀ (v : Json) (t : Scalar),
      ofJson E v = .ok t → t.Valid ∧ ofJson E (t.toJson E) = .ok t) ∧
    ∀ v : Json, v.isObject = true → ∀ p s : UInt32,
      (ofJson E v = .error (.invalidDecimal p s) ↔
        v.field? "type" = some (.string "Decimal") ∧
        v.field? "precision" = some (.number p.toNat 0) ∧
        v.field? "scale" = some (.number s.toNat 0) ∧
        ¬(1 ≤ p.toNat ∧ s.toNat ≤ p.toNat)) := by
  refine ⟨ofJson_toJson_iff hE, fun v t h => ?_, fun v hv p s => ?_⟩
  · have hvalid : t.Valid := valid_of_ofJson h
    exact ⟨hvalid, (ofJson_toJson_iff hE t).2 hvalid⟩
  · rw [ofJson_eq_invalidDecimal_iff hE hv, spelledBy_decimal_iff]
    constructor
    · rintro ⟨⟨-, htype, hprecision, hscale⟩, hvalid⟩
      exact ⟨htype, hprecision, hscale, hvalid⟩
    · rintro ⟨htype, hprecision, hscale, hvalid⟩
      exact ⟨⟨hv, htype, hprecision, hscale⟩, hvalid⟩

/-- The longest fraction is read from fields in another order than they are written in, past a field
that no scalar type has, and survives.  With the counts of an integer of two digits the wrong way
round the same object is refused for them, and with a count beyond the range of words it is not. -/
theorem valid_scalars_round_trip_of_reordered_fields :
    let E := Encoding.plain
    let object (scale precision : Int) : Json :=
      .ofFields [("scale", .number scale 0), ("unit", .null), ("precision", .number precision 0),
        ("type", .string "Decimal")]
        (show ["scale", "unit", "precision", "type"].Nodup by decide)
    let fraction : Scalar := decimal ⟨4294967295, 4294967295⟩
    E.Lawful ∧
    (ofJson E (object 4294967295 4294967295) = .ok fraction ∧
      fraction.Valid ∧ ofJson E (fraction.toJson E) = .ok fraction) ∧
    ofJson E (object 2 0) = .error (.invalidDecimal 0 2) ∧
    ∀ p s, ofJson E (object 4294967296 0) ≠ .error (.invalidDecimal p s) := by
  intro E object fraction
  obtain ⟨-, hread, hrefused⟩ := valid_scalars_round_trip Encoding.plain_lawful
  have hfraction : ofJson E (object 4294967295 4294967295) = .ok fraction := rfl
  refine ⟨Encoding.plain_lawful, ⟨hfraction, hread _ _ hfraction⟩, ?_, ?_⟩
  · exact (hrefused _ rfl 0 2).2 ⟨rfl, rfl, rfl, by decide⟩
  · intro p s h
    obtain ⟨-, -, hscale, -⟩ := (hrefused _ rfl p s).1 h
    have hs : (4294967296 : Int) = s.toNat := by
      injection hscale with hnumber
      injection hnumber
    have hword : s.toNat < 4294967296 := s.toNat_lt
    omega

end Hypercube.Scalar
