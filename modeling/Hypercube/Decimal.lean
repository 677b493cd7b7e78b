/-!
# Decimal types

A decimal type counts digits: `precision` of them in all, `scale` of them after the point.  Counts
are 32-bit words.

* `Decimal.ofDigits?` — the checked constructor; it accepts exactly the `Decimal.Valid` counts.
* `Decimal.widen?` — the decimal that keeps every digit of two others, if its precision is within
  `maxDecimalPrecision`.
-/

set_option autoImplicit false

namespace Hypercube

/-- Largest precision a widened decimal may have. -/
def maxDecimalPrecision : UInt32 := 38

/-- A fixed-point number type with `precision` digits, of which `scale` follow the point. -/
structure Decimal where
  precision : UInt32
  scale : UInt32
deriving DecidableEq, Repr

namespace Decimal

/-- There is a digit, and no more digits follow the point than there are in all. -/
def Valid (d : Decimal) : Prop :=
  1 ≤ d.precision.toNat ∧ d.scale.toNat ≤ d.precision.toNat

instance (d : Decimal) : Decidable d.Valid :=
  inferInstanceAs (Decidable (_ ∧ _))

/-- The decimal with the given digit counts; `none` when they are not those of a decimal. -/
def ofDigits? (precision scale : UInt32) : Option Decimal :=
  if precision = 0 ∨ precision < scale then none else some ⟨precision, scale⟩

/-- The decimal of whole numbers with the given precision. -/
def integer? (precision : UInt32) : Option Decimal :=
  ofDigits? precision 0

/-- Number of digits before the point. -/
def integerDigits (d : Decimal) : UInt32 :=
  d.precision - d.scale

/-- The sum of two digit counts, unless it leaves the range of a word. -/
def addDigits? (a b : UInt32) : Option UInt32 :=
  if a.toNat + b.toNat < UInt32.size then some (a + b) else none

/-- The decimal with the larger scale and the larger number of integer digits; `none` when its
precision would exceed `maxDecimalPrecision`. -/
def widen? (a b : Decimal) : Option Decimal :=
  let scale := max a.scale b.scale
  match addDigits? (max a.integerDigits b.integerDigits) scale with
  | some precision => if precision ≤ maxDecimalPrecision then some ⟨precision, scale⟩ else none
  | none => none

/-- Text of a pair of digit counts. -/
def renderDigits (precision scale : UInt32) : String :=
  "DECIMAL(" ++ toString precision.toNat ++ ", " ++ toString scale.toNat ++ ")"

/-- What is wrong with digit counts that `ofDigits?` refuses. -/
def refusal (precision scale : UInt32) : String :=
  "Invalid type definition: " ++ renderDigits precision scale
    ++ " needs precision >= 1 and scale <= precision"

theorem ofDigits?_eq_some_iff {p s : UInt32} {d : Decimal} :
    ofDigits? p s = some d ↔ d = ⟨p, s⟩ ∧ d.Valid := by
  unfold ofDigits? Valid
  have hp : p = 0 ↔ p.toNat = 0 := by
    rw [← UInt32.toNat_inj]; rfl
  split
  · rename_i h
    rw [hp, UInt32.lt_iff_toNat_lt] at h
    constructor
    · intro h'; cases h'
    · rintro ⟨rfl, h1, h2⟩
      simp only at h1 h2
      omega
  · rename_i h
    rw [hp, UInt32.lt_iff_toNat_lt] at h
    constructor
    · intro h'
      cases h'
      refine ⟨rfl, ?_, ?_⟩ <;> simp only <;> omega
    · rintro ⟨rfl, -⟩
      rfl

end Decimal

end Hypercube
