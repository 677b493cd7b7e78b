import Hypercube.Proofs.WellFormed

/-!
# Widening finds the least decimal that covers two others

Widening puts the larger count of integer digits and the larger scale together, whichever of the two
decimals each of them comes from, and does not check the decimal that it builds.  It has to be valid
all the same, no smaller decimal may do, and the counts, which are words of any size, must not wrap
around on the way.

* `exactWord?` — the word that is a given number, for arithmetic that must not leave the range.
* `Decimal.Covers` — a decimal has all the digits of another one.
* `Decimal.strictWiden?`, `Decimal.strictWiden?_eq` — widening in exact arithmetic, and that
  widening gives the same.
* `Decimal.covers_of_widened`, `Decimal.le_of_widened` — a widened decimal covers both sides, and
  has no more digits than any other that does.
* `Decimal.exists_widened` — there is one wherever some decimal within the limit covers both.
* `Decimal.widening_is_least` — all of this together.
-/

set_option autoImplicit false

namespace Hypercube

/-- The word that is a given number, if the number is in the range of words. -/
def exactWord? (n : Int) : Option UInt32 :=
  if 0 ≤ n ∧ n < UInt32.size then some (.ofNat n.toNat) else none

theorem exactWord?_eq_some_iff {n : Int} {w : UInt32} :
    exactWord? n = some w ↔ (w.toNat : Int) = n := by
  have hw : w.toNat < UInt32.size := w.toNat_lt
  unfold exactWord?
  split
  · rename_i h
    have hn : (UInt32.ofNat n.toNat).toNat = n.toNat := UInt32.toNat_ofNat_of_lt' (by omega)
    rw [Option.some.injEq, ← UInt32.toNat_inj, hn]
    omega
  · rename_i h
    simp only [reduceCtorEq, false_iff]
    omega

namespace Decimal

/-- A decimal has at least the digits of another one, after the point and before it. -/
structure Covers (e a : Decimal) : Prop where
  scale : a.scale ≤ e.scale
  integerDigits : a.integerDigits ≤ e.integerDigits

instance (e a : Decimal) : Decidable (e.Covers a) :=
  decidable_of_iff (a.scale ≤ e.scale ∧ a.integerDigits ≤ e.integerDigits)
    ⟨fun h => ⟨h.1, h.2⟩, fun h => ⟨h.scale, h.integerDigits⟩⟩

/-! ## Exact arithmetic -/

/-- Number of digits before the point.  The difference has to be a word. -/
def strictIntegerDigits? (d : Decimal) : Option UInt32 :=
  exactWord? (d.precision.toNat - d.scale.toNat)

/-- Widening in exact arithmetic.  There is no answer if a difference is not a word.  A sum that is
not a word is too large for a decimal. -/
def strictWiden? (a b : Decimal) : Option (Option Decimal) := do
  let left ← a.strictIntegerDigits?
  let right ← b.strictIntegerDigits?
  let scale := max a.scale b.scale
  return match exactWord? ((max left right).toNat + scale.toNat) with
    | some precision => if precision ≤ maxDecimalPrecision then some ⟨precision, scale⟩ else none
    | none => none

theorem strictIntegerDigits?_eq {d : Decimal} (hd : d.Valid) :
    d.strictIntegerDigits? = some d.integerDigits := by
  have hdigits := integerDigits_of_valid hd
  obtain ⟨-, hscale⟩ := hd
  rw [strictIntegerDigits?, exactWord?_eq_some_iff]
  omega

theorem addDigits?_eq_exactWord? (x y : UInt32) :
    addDigits? x y = exactWord? (x.toNat + y.toNat) := by
  apply Option.ext
  intro w
  rw [addDigits?_eq_some_iff, exactWord?_eq_some_iff]
  omega

/-- Between valid decimals, no operation on words leaves their range unnoticed. -/
theorem strictWiden?_eq {a b : Decimal} (ha : a.Valid) (hb : b.Valid) :
    strictWiden? a b = some (a.widen? b) := by
  rw [strictWiden?, strictIntegerDigits?_eq ha, strictIntegerDigits?_eq hb]
  simp only [Option.bind_eq_bind, Option.bind_some, ← addDigits?_eq_exactWord?]
  rfl

/-! ## The least covering decimal -/

variable {a b d e : Decimal}

theorem precision_of_valid (hd : d.Valid) :
    d.precision.toNat = d.integerDigits.toNat + d.scale.toNat := by
  have hdigits := integerDigits_of_valid hd
  obtain ⟨-, hscale⟩ := hd
  omega

theorem covers_iff :
    e.Covers a ↔
      a.scale.toNat ≤ e.scale.toNat ∧ a.integerDigits.toNat ≤ e.integerDigits.toNat := by
  constructor
  · rintro ⟨hscale, hdigits⟩
    exact ⟨UInt32.le_iff_toNat_le.1 hscale, UInt32.le_iff_toNat_le.1 hdigits⟩
  · rintro ⟨hscale, hdigits⟩
    exact ⟨UInt32.le_iff_toNat_le.2 hscale, UInt32.le_iff_toNat_le.2 hdigits⟩

theorem covers_of_widened (h : a.widen? b = some d) : d.Covers a ∧ d.Covers b := by
  have hdigits := integerDigits_of_widened h
  obtain ⟨hscale, -, -⟩ := widen?_eq_some_iff.1 h
  constructor
  · rw [covers_iff]
    omega
  · rw [covers_iff]
    omega

/-- Whatever valid decimal covers both sides of a widened one has at least its digits. -/
theorem le_of_widened (h : a.widen? b = some d) (he : e.Valid) (hea : e.Covers a)
    (heb : e.Covers b) :
    d.scale ≤ e.scale ∧ d.integerDigits ≤ e.integerDigits ∧ d.precision ≤ e.precision := by
  have hdigits := integerDigits_of_widened h
  have hprecision := precision_of_valid he
  obtain ⟨hscale, hwidened, -⟩ := widen?_eq_some_iff.1 h
  rw [covers_iff] at hea heb
  simp only [UInt32.le_iff_toNat_le]
  omega

/-- Where some decimal within the limit covers both sides, there is a widened one. -/
theorem exists_widened (he : e.Valid) (hlimit : e.precision ≤ maxDecimalPrecision)
    (hea : e.Covers a) (heb : e.Covers b) : ∃ d, a.widen? b = some d := by
  have hprecision := precision_of_valid he
  rw [UInt32.le_iff_toNat_le] at hlimit
  rw [covers_iff] at hea heb
  -- the sum of the larger counts is at most the precision of the covering decimal, hence a word
  obtain ⟨p, hp⟩ : ∃ p : UInt32, p.toNat = max a.integerDigits.toNat b.integerDigits.toNat +
      max a.scale.toNat b.scale.toNat := by
    have hword : e.precision.toNat < UInt32.size := e.precision.toNat_lt
    exact ⟨.ofNat _, UInt32.toNat_ofNat_of_lt' (by omega)⟩
  have hscale : (max a.scale b.scale).toNat = max a.scale.toNat b.scale.toNat := toNat_max _ _
  refine ⟨⟨p, max a.scale b.scale⟩, widen?_eq_some_iff.2 ⟨hscale, ?_, ?_⟩⟩
  · rw [hscale]
    exact hp
  · show p.toNat ≤ _
    omega

/-- Widening two valid decimals computes without wrapping around.  A decimal that comes of it is
valid, within the limit, and covers both; every other valid decimal that covers both has at least
its scale, its integer digits and its precision.  None comes of it exactly if no valid decimal
within the limit covers both. -/
theorem widening_is_least (ha : a.Valid) (hb : b.Valid) :
    strictWiden? a b = some (a.widen? b) ∧
    (∀ d, a.widen? b = some d →
      d.Valid ∧ d.precision ≤ maxDecimalPrecision ∧ d.Covers a ∧ d.Covers b ∧
      ∀ e : Decimal, e.Valid → e.Covers a → e.Covers b →
        d.scale ≤ e.scale ∧ d.integerDigits ≤ e.integerDigits ∧ d.precision ≤ e.precision) ∧
    (a.widen? b = none ↔
      ¬∃ e : Decimal, e.Valid ∧ e.precision ≤ maxDecimalPrecision ∧ e.Covers a ∧ e.Covers b) := by
  have widened : ∀ d, a.widen? b = some d →
      d.Valid ∧ d.precision ≤ maxDecimalPrecision ∧ d.Covers a ∧ d.Covers b := by
    intro d h
    obtain ⟨-, -, hlimit⟩ := widen?_eq_some_iff.1 h
    exact ⟨valid_of_widen? ha h, UInt32.le_iff_toNat_le.2 hlimit, covers_of_widened h⟩
  refine ⟨strictWiden?_eq ha hb, fun d h => ?_, ?_⟩
  · obtain ⟨hvalid, hlimit, hda, hdb⟩ := widened d h
    exact ⟨hvalid, hlimit, hda, hdb, fun e he hea heb => le_of_widened h he hea heb⟩
  · constructor
    · rintro hnone ⟨e, he, hlimit, hea, heb⟩
      obtain ⟨d, hd⟩ := exists_widened he hlimit hea heb
      rw [hnone] at hd
      cases hd
    · intro hcovered
      rw [Option.eq_none_iff_forall_ne_some]
      intro d hd
      exact hcovered ⟨d, widened d hd⟩

/-- Four digits after the point and seven before it need eleven in all, so a decimal that covers
both has no fewer.  The digits of the longest integer and of the longest fraction add up beyond the
range of words, which is noticed, and no decimal within the limit covers the two. -/
theorem widening_is_least_of_mixed_digits :
    let fraction : Decimal := ⟨5, 4⟩
    let integer : Decimal := ⟨7, 0⟩
    let money : Decimal := ⟨18, 6⟩
    let integers : Decimal := ⟨4294967295, 0⟩
    let fractions : Decimal := ⟨4294967295, 4294967295⟩
    (fraction.Valid ∧ integer.Valid ∧ fraction.widen? integer = some ⟨11, 4⟩) ∧
      (money.Valid ∧ money.Covers fraction ∧ money.Covers integer ∧ 11 ≤ money.precision) ∧
      (integers.Valid ∧ fractions.Valid ∧ strictWiden? integers fractions = some none) ∧
      ¬∃ e : Decimal, e.Valid ∧ e.precision ≤ maxDecimalPrecision ∧ e.Covers integers ∧
        e.Covers fractions := by
  intro fraction integer money integers fractions
  have hfraction : fraction.Valid := by decide
  have hinteger : integer.Valid := by decide
  have hwidened : fraction.widen? integer = some ⟨11, 4⟩ := by decide
  obtain ⟨-, hleast, -⟩ := widening_is_least hfraction hinteger
  obtain ⟨-, -, -, -, hmoney⟩ := hleast _ hwidened
  have hvalid : money.Valid := by decide
  have hcovers : money.Covers fraction := by decide
  have hcovers' : money.Covers integer := by decide
  have hintegers : integers.Valid := by decide
  have hfractions : fractions.Valid := by decide
  have hnone : integers.widen? fractions = none := by decide
  obtain ⟨hstrict, -, huncovered⟩ := widening_is_least hintegers hfractions
  rw [hnone] at hstrict
  exact ⟨⟨hfraction, hinteger, hwidened⟩,
    ⟨hvalid, hcovers, hcovers', (hmoney money hvalid hcovers hcovers').2.2⟩,
    ⟨hintegers, hfractions, hstrict⟩, huncovered.1 hnone⟩

end Decimal

end Hypercube
