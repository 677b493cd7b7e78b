import Hypercube.Decimal

/-!
# Digits of widened decimals

Digit counts are words, so their sums and differences may leave the range.  Here widening is
described by natural numbers.

* `Decimal.widen?_eq_some_iff` — the digit counts of a widened decimal.
* `Decimal.widen?_of_widened` — widening a widened decimal by one of its sides changes nothing.
-/

set_option autoImplicit false

namespace Hypercube

namespace Decimal

theorem toNat_max (x y : UInt32) : (max x y).toNat = max x.toNat y.toNat := by
  show (if x ≤ y then y else x).toNat = _
  split
  · rename_i h
    exact (Nat.max_eq_right (UInt32.le_iff_toNat_le.1 h)).symm
  · rename_i h
    have h' : ¬ x.toNat ≤ y.toNat := fun h₁ => h (UInt32.le_iff_toNat_le.2 h₁)
    exact (Nat.max_eq_left (by omega)).symm

theorem addDigits?_eq_some_iff {a b c : UInt32} :
    addDigits? a b = some c ↔ c.toNat = a.toNat + b.toNat := by
  unfold addDigits?
  have hc := c.toNat_lt
  split
  · rename_i h
    rw [Option.some.injEq, ← UInt32.toNat_inj, UInt32.toNat_add, Nat.mod_eq_of_lt h]
    exact eq_comm
  · rename_i h
    simp only [reduceCtorEq, false_iff]
    intro h'
    exact h (h' ▸ hc)

/-- A widened decimal has the larger scale, the larger number of integer digits, and a precision
within the limit. -/
theorem widen?_eq_some_iff {a b d : Decimal} :
    a.widen? b = some d ↔
      d.scale.toNat = max a.scale.toNat b.scale.toNat ∧
      d.precision.toNat =
        max a.integerDigits.toNat b.integerDigits.toNat + d.scale.toNat ∧
      d.precision.toNat ≤ maxDecimalPrecision.toNat := by
  obtain ⟨p, s⟩ := d
  have hscale : max a.scale b.scale = s ↔ s.toNat = max a.scale.toNat b.scale.toNat := by
    rw [← UInt32.toNat_inj, toNat_max, eq_comm]
  unfold widen?
  simp only
  constructor
  · intro h
    split at h
    · rename_i q hq
      split at h
      · rename_i hle
        cases h
        rw [addDigits?_eq_some_iff, toNat_max] at hq
        exact ⟨toNat_max _ _, hq, UInt32.le_iff_toNat_le.1 hle⟩
      · cases h
    · cases h
  · rintro ⟨h₁, h₂, h₃⟩
    have hq : addDigits? (max a.integerDigits b.integerDigits) (max a.scale b.scale) = some p := by
      rw [hscale.2 h₁, addDigits?_eq_some_iff, toNat_max]
      exact h₂
    rw [hq, hscale.2 h₁]
    exact if_pos (UInt32.le_iff_toNat_le.2 h₃)

theorem widen?_comm (a b : Decimal) : a.widen? b = b.widen? a := by
  apply Option.ext
  intro d
  rw [widen?_eq_some_iff, widen?_eq_some_iff, Nat.max_comm a.scale.toNat,
    Nat.max_comm a.integerDigits.toNat]

/-- The difference of the digit counts does not wrap around unless the scale is too large. -/
theorem toNat_integerDigits {d : Decimal} (h : d.scale.toNat ≤ d.precision.toNat) :
    d.integerDigits.toNat = d.precision.toNat - d.scale.toNat :=
  UInt32.toNat_sub_of_le _ _ (UInt32.le_iff_toNat_le.2 h)

/-- No digit of a widened decimal is lost in the difference of its counts. -/
theorem integerDigits_of_widened {a b d : Decimal} (h : a.widen? b = some d) :
    d.integerDigits.toNat = max a.integerDigits.toNat b.integerDigits.toNat := by
  obtain ⟨-, hp, -⟩ := widen?_eq_some_iff.1 h
  rw [toNat_integerDigits (by omega)]
  omega

theorem widen?_of_widened {a b d : Decimal} (h : a.widen? b = some d) : d.widen? a = some d := by
  have hd := integerDigits_of_widened h
  obtain ⟨hs, hp, hle⟩ := widen?_eq_some_iff.1 h
  refine widen?_eq_some_iff.2 ⟨?_, ?_, hle⟩
  · omega
  · omega

end Decimal

end Hypercube
